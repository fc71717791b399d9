/-!
# Errors of YAML texts
-/

namespace SpecMatch.Yaml

/-- What can be wrong with a YAML text. -/
inductive Error where
  /-- The text is no single well-formed document that can be built. -/
  | malformed
  /-- A number, a date or a code of the right form has no value. -/
  | noValue
  /-- A word is tagged as a truth value and is none. -/
  | noTruthValue
  /-- An empty text is tagged as a number. -/
  | emptyNumber
  /-- A text is tagged as a time and does not have its form. -/
  | noTime
  /-- Something that has no text of its own is tagged as a time. -/
  | noTimeText
  /-- A code or a power of sixty is too large to be held. -/
  | tooLarge
deriving DecidableEq

end SpecMatch.Yaml
