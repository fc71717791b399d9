import SpecMatch.World

/-!
# The depth of specs

The depth of a spec is the number of specs nested in one another: a literal has depth 1, and
connectives, quantifiers, key specs, containers and constraints each add a level. Matching never
goes deeper than that. A variable whose constraint leads back to itself has no depth.
-/

namespace SpecMatch

namespace Term

section

variable (cellDepth : Nat → Option Nat)

mutual

/-- The depth of a spec, given the depth of variables. -/
def depthWith : Term → Option Nat
  | .allOf specs | .anyOf specs => (deepest specs).map (1 + ·)
  | .negation spec | .maybe spec | .strict spec | .everyItem spec | .someItem spec
  | .keyed spec _ _ => (depthWith spec).map (1 + ·)
  | .var cell => cellDepth cell
  | .list items | .tuple items => (deepest items).map (1 + ·)
  | .map _ entries => (deepestEntry entries).map (1 + ·)
  | .fields attributes => (deepestAttribute attributes).map (1 + ·)
  | _ => some 1

/-- The depth of the deepest spec. -/
def deepest : List Term → Option Nat
  | [] => some 0
  | x :: xs => do
    let depth ← depthWith x
    return max depth (← deepest xs)

/-- The depth of the deepest spec under a key. -/
def deepestEntry : List (Term × Term) → Option Nat
  | [] => some 0
  | (_, v) :: es => do
    let depth ← depthWith v
    return max depth (← deepestEntry es)

/-- The depth of the deepest spec in an attribute. -/
def deepestAttribute : List (String × Term) → Option Nat
  | [] => some 0
  | (_, v) :: as => do
    let depth ← depthWith v
    return max depth (← deepestAttribute as)

end

end

end Term

namespace Store

/-- The depth of a spec that follows constraints at most `links` times. -/
def depthWithin? (s : Store) : Nat → Term → Option Nat
  | 0 => Term.depthWith fun id => if (s.cell id).free then some 1 else none
  | links + 1 => Term.depthWith fun id =>
    if (s.cell id).free then some 1
    else (s.depthWithin? links (s.cell id).constraint).map (1 + ·)

/-- The depth of a spec, if it has one. No chain of constraints is longer than there are cells. -/
def depth? (s : Store) : Term → Option Nat := s.depthWithin? s.cells.size

/-- The depth of a dispatch table: one more than that of its deepest spec. -/
def tableDepth? (s : Store) (cases : List (Term × Term)) : Option Nat := do
  let depths ← cases.mapM fun c => s.depth? c.1
  return 1 + depths.foldl max 0

end Store

end SpecMatch
