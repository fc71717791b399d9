/-!
# Codes that are no characters

An escape may name a code between the two halves of Unicode that characters have, the half of a
surrogate pair. Text keeps such a code as one private character, so that it has a length of one and
is told apart from every other code in use.
-/

namespace SpecMatch.Text

/-- Whether a code is half a surrogate pair and no character. -/
def IsSurrogate (code : Nat) : Prop := 0xd800 ≤ code ∧ code < 0xe000

instance (code : Nat) : Decidable (IsSurrogate code) := inferInstanceAs (Decidable (_ ∧ _))

/-- How far the private characters are from the codes that they stand for. -/
def surrogateShift : Nat := 0xf0000

/-- The character for a code, or the one that stands for it. -/
def ofCode (code : Nat) : Char :=
  if IsSurrogate code then Char.ofNat (surrogateShift + code) else Char.ofNat code

/-- The code that a character stands for, if it is no character itself. -/
def surrogate? (c : Char) : Option Nat :=
  if IsSurrogate (c.toNat - surrogateShift) then some (c.toNat - surrogateShift) else none

end SpecMatch.Text
