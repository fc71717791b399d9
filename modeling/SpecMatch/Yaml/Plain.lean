import SpecMatch.Numeric.Layout

/-!
# What plain scalars mean

In YAML 1.1 the text of a plain scalar decides what it is: a truth value, a number, a time, nothing,
one of two marks for mappings, or else a string. `Tag.ofPlain` decides and the readers give
numbers and times their values.
-/

namespace SpecMatch.Yaml

/-- The tags that YAML itself gives a meaning to, and the others by their text. -/
inductive Tag where
  | null | bool | int | float | time | str | binary | seq | map | set | orderedPairs | pairs
  /-- Merges other mappings into the one whose key it is. -/
  | merge
  /-- Stands for a plain string where it is a key. -/
  | value
  | other (text : String)
deriving DecidableEq

namespace Tag

/-- The beginning of the tags of YAML itself. -/
def stem : String := "tag:yaml.org,2002:"

/-- The tags that may be written out, by what follows the beginning. -/
def known : List (String × Tag) :=
  [("null", .null), ("bool", .bool), ("int", .int), ("float", .float), ("timestamp", .time),
    ("str", .str), ("binary", .binary), ("seq", .seq), ("map", .map), ("set", .set),
    ("omap", .orderedPairs), ("pairs", .pairs), ("merge", .merge), ("value", .value)]

/-- The tag with a text. -/
def ofText (text : String) : Tag :=
  if text.startsWith stem then
    (known.lookup (String.ofList (text.toList.drop stem.length))).getD (.other text)
  else .other text

/-- Words that stand for truth values, in lower case. -/
def truthWords : List (String × Bool) :=
  [("yes", true), ("no", false), ("true", true), ("false", false), ("on", true), ("off", false)]

/-- A word as it is, capitalised, and in capitals. -/
def spellings (word : String) : List String := [word, word.capitalize, word.toUpper]

/-- Whether a character may fill up a number. -/
def isDigitOr_ (c : Char) : Bool := c.isDigit || c == '_'

/-- The text after a run that begins with a digit of a set and goes on with fillers. -/
def afterDigits? (first : Char → Bool) (cs : List Char) : Option (List Char) :=
  match cs with
  | c :: rest => if first c then some (rest.dropWhile isDigitOr_) else none
  | [] => none

/-- The text after a colon and a number below sixty. -/
def afterSixtieth? (cs : List Char) : Option (List Char) :=
  match cs with
  | ':' :: a :: b :: rest =>
    if '0' ≤ a && a ≤ '5' && b.isDigit then some rest
    else if a.isDigit then some (b :: rest) else none
  | [':', a] => if a.isDigit then some [] else none
  | _ => none

/-- The text after as many numbers below sixty as there are, each after a colon; at least one. -/
def afterSixtieths? : Nat → List Char → Option (List Char)
  | 0, _ => none
  | fuel + 1, cs => (afterSixtieth? cs).bind fun rest =>
    some ((afterSixtieths? fuel rest).getD rest)

/-- Whether a text is a non-empty run of characters of a set. -/
def isRun (test : Char → Bool) (cs : List Char) : Bool := !cs.isEmpty && cs.all test

/-- Whether a text has the form of an integer: binary, octal, decimal, hexadecimal or in base
sixty. -/
def isInt (cs : List Char) : Bool :=
  let cs := (Double.splitSign cs).2
  let nonZero (c : Char) : Bool := c.isDigit && c != '0'
  let decimal := match afterDigits? nonZero cs with
    | some [] => true
    | some rest => afterSixtieths? rest.length rest == some []
    | none => cs == ['0']
  decimal || match cs with
    | '0' :: 'b' :: rest => isRun (fun c => c == '0' || c == '1' || c == '_') rest
    | '0' :: 'x' :: rest =>
      isRun (fun c => isDigitOr_ c || ('a' ≤ c && c ≤ 'f') || ('A' ≤ c && c ≤ 'F')) rest
    | '0' :: rest => isRun (fun c => ('0' ≤ c && c ≤ '7') || c == '_') rest
    | _ => false

/-- Whether a text is an exponent with a sign, or nothing. -/
def isExponent (cs : List Char) : Bool :=
  match cs with
  | [] => true
  | e :: s :: digits =>
    (e == 'e' || e == 'E') && (s == '+' || s == '-') && isRun Char.isDigit digits
  | _ => false

/-- Whether a text has the form of a number with a point. -/
def isFloat (cs : List Char) : Bool :=
  let body := (Double.splitSign cs).2
  let text := String.ofList body
  let special := [".inf", ".Inf", ".INF"].contains text ||
    [".nan", ".NaN", ".NAN"].contains (String.ofList cs)
  let fraction := match cs with
    | '.' :: rest =>
      match afterDigits? Char.isDigit rest with
      | some rest => isExponent rest
      | none => false
    | _ => false
  let whole := match afterDigits? Char.isDigit body with
    | some ('.' :: rest) => isExponent (rest.dropWhile isDigitOr_)
    | some rest =>
      match afterSixtieths? rest.length rest with
      | some ('.' :: rest) => rest.all isDigitOr_
      | _ => false
    | none => false
  special || fraction || whole

end Tag

/-! ## Times -/

/-- A date, with the time of day and the distance from universal time as far as they are given. -/
structure Time where
  year : Nat
  month : Nat
  day : Nat
  /-- Hour, minute and second. -/
  clock : Option (Nat × Nat × Nat) := none
  /-- Hours and minutes of the distance from universal time. -/
  offset : Option (Nat × Nat) := none
deriving DecidableEq

namespace Time

/-- A number of at least `least` and at most `most` digits, and the text after it. -/
def number? (least most : Nat) (cs : List Char) : Option (Nat × List Char) :=
  let digits := (cs.take most).takeWhile Char.isDigit
  if digits.length < least then none
  else some (Double.digitsValue digits, cs.drop digits.length)

/-- The text after a character. -/
def after? (c : Char) (cs : List Char) : Option (List Char) :=
  if cs.head? == some c then some cs.tail else none

/-- Whether a character separates the parts of a time. -/
def isSpace (c : Char) : Bool := c == ' ' || c == '\t'

/-- The distance from universal time at the end of a time, if its form is right. -/
def parseOffset? (cs : List Char) : Option (Option (Nat × Nat)) :=
  match cs.dropWhile isSpace with
  | [] => if cs.isEmpty then some none else none
  | ['Z'] => some none
  | sign :: rest =>
    if sign == '+' || sign == '-' then do
      let (hours, rest) ← number? 1 2 rest
      match rest with
      | [] => some (some (hours, 0))
      | _ =>
        let (minutes, rest) ← number? 2 2 (← after? ':' rest)
        if rest.isEmpty then some (some (hours, minutes)) else none
    else none

/-- Reads the text of a time. In a date alone the month and the day may be short only where the
text is tagged as a time. -/
def parse? (short : Bool) (cs : List Char) : Option Time := do
  let (year, rest) ← number? 4 4 cs
  let monthText ← after? '-' rest
  let (month, rest) ← number? 1 2 monthText
  let dayText ← after? '-' rest
  let (day, rest) ← number? 1 2 dayText
  match rest with
  | [] => if short || cs.length == 10 then some ⟨year, month, day, none, none⟩ else none
  | c :: tail =>
    let rest ←
      if c == 'T' || c == 't' then some tail
      else if isSpace c then some (tail.dropWhile isSpace) else none
    let (hour, rest) ← number? 1 2 rest
    let (minute, rest) ← number? 2 2 (← after? ':' rest)
    let (second, rest) ← number? 2 2 (← after? ':' rest)
    let rest := match rest with
      | '.' :: rest => rest.dropWhile Char.isDigit
      | rest => rest
    let offset ← parseOffset? rest
    some ⟨year, month, day, some (hour, minute, second), offset⟩

/-- Whether a year has a leap day. -/
def isLeap (year : Nat) : Bool := (year % 4 == 0 && year % 100 != 0) || year % 400 == 0

/-- How many days a month has. -/
def daysIn (year month : Nat) : Nat :=
  if month == 2 then if isLeap year then 29 else 28
  else if [4, 6, 9, 11].contains month then 30 else 31

/-- Whether there is such a time. -/
def exists? (t : Time) : Bool :=
  let clock := match t.clock with
    | some (hour, minute, second) => hour < 24 && minute < 60 && second < 60
    | none => true
  let offset := match t.offset with
    | some (hours, minutes) => hours * 60 + minutes < 24 * 60
    | none => true
  1 ≤ t.year && 1 ≤ t.month && t.month ≤ 12 && 1 ≤ t.day && t.day ≤ daysIn t.year t.month &&
    clock && offset

end Time

/-- The text without the line break at its end, if it has one. -/
def withoutBreak (cs : List Char) : List Char :=
  if cs.getLast? == some '\n' then cs.dropLast else cs

/-- The tag that the text of a scalar has by itself. A line break at the end does not count, except
where the text is nothing else. -/
def Tag.ofPlain (text : String) : Tag :=
  if text.isEmpty then .null
  else
    let cs := withoutBreak text.toList
    let word := String.ofList cs
    if word == "~" || (spellings "null").contains word then .null
    else if (truthWords.flatMap fun w => spellings w.1).contains word then .bool
    else if isFloat cs then .float
    else if isInt cs then .int
    else if word == "<<" then .merge
    else if (Time.parse? false cs).isSome then .time
    else if word == "=" then .value
    else if ["!", "&", "*"].contains word then .other (stem ++ "yaml")
    else .str

end SpecMatch.Yaml
