import SpecMatch.Term.Basic

/-!
# The nesting of terms

`Term.nesting` counts how many terms stand in one another, whatever role they have there. It tells
how far an evaluation can descend into a term, and so how many levels it needs.
-/

namespace SpecMatch.Term

mutual

/-- How many terms stand in one another at the deepest place of a term. -/
def nesting : Term → Nat
  | .list items | .tuple items | .oneOf items _ | .allOf items | .anyOf items | .fanout items =>
    nestingOfItems items + 1
  | .map _ entries | .dispatcher entries => nestingOfPairs entries + 1
  | .fields attributes => nestingOfAttributes attributes + 1
  | .circle part | .square part | .left part | .right part | .comparison _ part | .negation part
  | .maybe part | .strict part | .everyItem part | .someItem part | .keyed part _ _ | .action part
  | .recorder _ part => nesting part + 1
  | _ => 1

/-- The nesting of the most deeply nested item. -/
def nestingOfItems : List Term → Nat
  | [] => 0
  | x :: xs => max (nesting x) (nestingOfItems xs)

/-- The nesting of the most deeply nested side of a pair. -/
def nestingOfPairs : List (Term × Term) → Nat
  | [] => 0
  | (a, b) :: ps => max (max (nesting a) (nesting b)) (nestingOfPairs ps)

/-- The nesting of the most deeply nested attribute. -/
def nestingOfAttributes : List (String × Term) → Nat
  | [] => 0
  | (_, v) :: as => max (nesting v) (nestingOfAttributes as)

end

/-- The nesting of all terms of a sequence together. -/
def totalNesting : List Term → Nat
  | [] => 0
  | x :: xs => nesting x + totalNesting xs

end SpecMatch.Term
