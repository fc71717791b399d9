import SpecMatch.Numeric.Layout
import SpecMatch.Text.Blank
import SpecMatch.Text.Digit

/-!
# Numbers that people spell

`Spelling.int?` and `Spelling.double?` read numbers more freely than they are written: with blanks
around them, a sign, and digits of any script. An integer may repeat the mark of its base, and a
decimal one may not be too long.
-/

namespace SpecMatch.Spelling

/-- The largest number of decimal digits of an integer. -/
def digitLimit : Nat := 4300

/-- A character in its ASCII form: digits of all scripts and blanks above ASCII have one. -/
def asciiForm (c : Char) : Char :=
  match Text.digitValue? c with
  | some d => Char.ofNat ('0'.toNat + d)
  | none => if Text.wideBlanks.contains c.toNat then ' ' else c

/-- Whether a character may stand around a number. -/
def isAround (c : Char) : Bool := (9 ≤ c.toNat && c.toNat ≤ 13) || c == ' '

/-- A text in ASCII forms without the blanks around it. -/
def trimmed (cs : List Char) : List Char :=
  (((cs.map asciiForm).dropWhile isAround).reverse.dropWhile isAround).reverse

/-- The value of a hexadecimal digit. -/
def hexDigit? (c : Char) : Option Nat :=
  if c.isDigit then some (c.toNat - '0'.toNat)
  else if 'a' ≤ c && c ≤ 'f' then some (c.toNat - 'a'.toNat + 10)
  else if 'A' ≤ c && c ≤ 'F' then some (c.toNat - 'A'.toNat + 10)
  else none

/-- The value of digits in a base. -/
def digits? (base : Nat) (cs : List Char) : Option Nat :=
  if cs.isEmpty then none
  else cs.foldlM (fun n c => do
    let d ← hexDigit? c
    if d < base then some (n * base + d) else none) 0

/-- The letters that mark the digits of a base after a zero. -/
def baseMarks : Nat → List Char
  | 2 => ['b', 'B']
  | 8 => ['o', 'O']
  | 16 => ['x', 'X']
  | _ => []

/-- The digits after the mark of the base, if there is one. -/
def afterMark (base : Nat) (cs : List Char) : List Char :=
  match cs with
  | '0' :: c :: rest => if (baseMarks base).contains c then rest else cs
  | _ => cs

/-- Reads an integer in a base. -/
def int? (base : Nat) (cs : List Char) : Option Int :=
  let (negative, body) := Double.splitSign (trimmed cs)
  let body := afterMark base body
  if base == 10 && digitLimit < body.length then none
  else (digits? base body).map fun n => if negative then -n else n

/-- Reads a double, which may be a word for infinity or for no number. -/
def double? (cs : List Char) : Option Double :=
  let (negative, body) := Double.splitSign (trimmed cs)
  let word := (String.ofList body).toLower
  if word == "inf" || word == "infinity" then some (.infinite negative)
  else if word == "nan" then some (.nan 0)
  else Double.unsigned? negative body

end SpecMatch.Spelling
