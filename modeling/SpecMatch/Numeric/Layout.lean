import SpecMatch.Numeric.Shortest

/-!
# How numbers are written

`NumberLayout` gathers the decisions of the written form of a double: which magnitudes are
written positionally, what the exponent looks like, and the spelling of the special values.
`Double.text` lays out the shortest digits by them and `Double.parse?` reads such a text.
-/

namespace SpecMatch

/-- The decisions behind the written form of a double. -/
structure NumberLayout where
  /-- The least decimal exponent that is written positionally. -/
  least : Int
  /-- The first decimal exponent that is too large to be written positionally. -/
  limit : Int
  /-- The least number of digits of a written exponent. -/
  exponentDigits : Nat
  notANumber : String
  infinity : String

/-- Numbers from 10⁻⁴ up to 10¹⁶ are positional and keep a fraction; the others have an exponent
with a sign and two digits. -/
def NumberLayout.standard : NumberLayout := ⟨-4, 16, 2, "nan", "inf"⟩

namespace Double

/-- A run of zeros. -/
def zeros (n : Nat) : String := String.ofList (List.replicate n '0')

/-- The digits with a point before them, inside them or after them. -/
def positional (digits : String) (point : Int) : String :=
  if point ≤ 0 then "0." ++ zeros (-point).toNat ++ digits
  else if point < digits.length then
    String.ofList (digits.toList.take point.toNat) ++ "." ++
      String.ofList (digits.toList.drop point.toNat)
  else digits ++ zeros (point - digits.length).toNat ++ ".0"

/-- The digits with a point after the first one, followed by the exponent. -/
def scientific (layout : NumberLayout) (digits : String) (exponent : Int) : String :=
  let first := String.ofList (digits.toList.take 1)
  let rest := String.ofList (digits.toList.drop 1)
  let size := Nat.repr exponent.natAbs
  first ++ (if rest.isEmpty then "" else "." ++ rest) ++ "e" ++
    (if exponent < 0 then "-" else "+") ++ zeros (layout.exponentDigits - size.length) ++ size

/-- The written form of a positive magnitude. -/
def magnitudeText (layout : NumberLayout) (magnitude : Nat) : String :=
  let decimal := shortest magnitude
  let digits := Nat.repr decimal.digits
  let point := decimal.exponent + digits.length
  if layout.least ≤ point - 1 && point - 1 < layout.limit then positional digits point
  else scientific layout digits (point - 1)

/-- The written form of a double. -/
def text (x : Double) (layout : NumberLayout := .standard) : String :=
  let sign (negative : Bool) := if negative then "-" else ""
  match x with
  | .nan _ => layout.notANumber
  | .infinite negative => sign negative ++ layout.infinity
  | .finite negative 0 => sign negative ++ "0.0"
  | .finite negative magnitude => sign negative ++ magnitudeText layout magnitude

/-- The value of a run of decimal digits. -/
def digitsValue (cs : List Char) : Nat := cs.foldl (fun n c => n * 10 + (c.toNat - '0'.toNat)) 0

/-- A sign and the text after it. -/
def splitSign : List Char → Bool × List Char
  | '-' :: cs => (true, cs)
  | '+' :: cs => (false, cs)
  | cs => (false, cs)

/-- An exponent part: nothing, or `e` with an integer. -/
def exponent? : List Char → Option Int
  | [] => some 0
  | c :: cs =>
    let (negative, digits) := splitSign cs
    if (c == 'e' || c == 'E') && !digits.isEmpty && digits.all Char.isDigit then
      some (if negative then -digitsValue digits else digitsValue digits)
    else none

/-- Reads digits with an optional point and exponent. -/
def unsigned? (negative : Bool) (cs : List Char) : Option Double :=
  let (whole, rest) := cs.span Char.isDigit
  let (fraction, rest) := match rest with
    | '.' :: rest => rest.span Char.isDigit
    | rest => ([], rest)
  if whole.isEmpty && fraction.isEmpty then none
  else (exponent? rest).map fun e =>
    ofDecimal negative (digitsValue (whole ++ fraction)) (e - fraction.length)

/-- Reads the written form of a double, a NaN being given the identity `id`. -/
def parse? (s : String) (id : Nat) : Option Double :=
  let (negative, cs) := splitSign s.toList
  if cs == "nan".toList then some (.nan id)
  else if cs == "inf".toList then some (.infinite negative)
  else unsigned? negative cs

end Double

end SpecMatch
