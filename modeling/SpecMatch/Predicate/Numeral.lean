/-!
# Numerals

`isNumeral` recognises the text of a decimal number: blanks, an optional sign, digits with an
optional point of which at least one digit stands on one side, an optional exponent, and blanks.
Digits and blanks are ASCII only.
-/

namespace SpecMatch

namespace Numeral

/-- The blanks that may surround a numeral: tab, line feed, form feed, carriage return, space. -/
def isBlank (c : Char) : Bool := c == '\t' || c == '\n' || c == '\x0c' || c == '\r' || c == ' '

/-- The text after an optional sign. -/
def afterSign : List Char → List Char
  | '+' :: cs => cs
  | '-' :: cs => cs
  | cs => cs

/-- The text after a run of digits, which must not be empty. -/
def afterDigits? (cs : List Char) : Option (List Char) :=
  match cs with
  | c :: _ => if c.isDigit then some (cs.dropWhile Char.isDigit) else none
  | [] => none

/-- The text after digits with an optional point. -/
def afterMantissa? (cs : List Char) : Option (List Char) :=
  match cs with
  | '.' :: rest => afterDigits? rest
  | _ => (afterDigits? cs).map fun
    | '.' :: rest => rest.dropWhile Char.isDigit
    | rest => rest

/-- The text after an optional exponent; an incomplete one is left where it is. -/
def afterExponent (cs : List Char) : List Char :=
  match cs with
  | c :: rest => if c == 'e' || c == 'E' then (afterDigits? (afterSign rest)).getD cs else cs
  | [] => []

end Numeral

/-- Whether a text spells a decimal number. -/
def isNumeral (s : String) : Bool :=
  match Numeral.afterMantissa? (Numeral.afterSign (s.toList.dropWhile Numeral.isBlank)) with
  | some rest => (Numeral.afterExponent rest).all Numeral.isBlank
  | none => false

end SpecMatch
