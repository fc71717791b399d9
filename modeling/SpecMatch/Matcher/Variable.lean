import SpecMatch.Matcher.Interp

/-!
# Logic variables

A variable accepts what its constraint accepts and remembers it. Each occurrence stands for itself:
the last one reached decides, a failed constraint forgets the value, and nothing is rolled back.
-/

namespace SpecMatch

/-- Makes a variable that is not bound, with a constraint of which `null` stands for none. -/
def newVariable (label : String) (constraint : Term := .null) : Eval Nat := do
  let id := (← Eval.store).cells.size
  Eval.modifyStore fun s => { s with cells := s.cells.push ⟨label, constraint, none⟩ }
  return id

/-- Replaces the constraint of a variable. What the variable is bound to stays, whether the new
constraint accepts it or not. -/
def constrain (id : Nat) (constraint : Term) : Eval Unit :=
  Eval.modifyStore (·.updateCell id ({ · with constraint := constraint }))

/-- Matches a value against the constraint of a variable and remembers it if it is accepted. -/
def bindCell (interp : Interp) (id : Nat) (value key : Term) : Eval Verdict := do
  let cell := (← Eval.store).cell id
  let allowed ← if cell.free then pure true else interp.accepts cell.constraint value key
  if allowed then
    setCell id value key
    return .right value
  else
    resetCell id
    return .left value

/-- The value of a variable, or `null` while it has none. -/
def readCell (id : Nat) : Eval Term := do return ((← Eval.store).cell id).value.getD .null

end SpecMatch
