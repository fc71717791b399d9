import SpecMatch.Term.Equality

/-!
# Order of terms

Numbers are ordered by their exact value, text by code point, bytes by value, and lists with lists
and tuples with tuples by the first pair of elements that differs. `Term.orders?` answers `none`
for every other pair: the two cannot be ordered.
-/

namespace SpecMatch

/-- A question about the order of two terms. -/
inductive Relation where
  | less | atMost | more | atLeast
deriving DecidableEq

namespace Relation

/-- Whether the relation holds of two things that are ordered so. -/
def holds : Relation → Ordering → Bool
  | .less, o => o == .lt
  | .atMost, o => o != .gt
  | .more, o => o == .gt
  | .atLeast, o => o != .lt

/-- The relation that a symbol stands for. -/
def ofSymbol? : String → Option Relation
  | "<" => some .less
  | "<=" => some .atMost
  | ">" => some .more
  | ">=" => some .atLeast
  | _ => none

end Relation

/-- The order of two byte strings. -/
def compareBytes : List UInt8 → List UInt8 → Ordering
  | [], [] => .eq
  | [], _ :: _ => .lt
  | _ :: _, [] => .gt
  | a :: as, b :: bs => (compare a b).then (compareBytes as bs)

namespace Term

section

variable (alike : String → String → Bool) (relation : Relation)

mutual

/-- Whether the relation holds of two terms, if they can be ordered. -/
def orders? : Term → Term → Option Bool
  | .bool a, b => numbers (.ofInt (if a then 1 else 0)) b
  | .int a, b => numbers (.ofInt a) b
  | .float a, b => numbers (.ofDouble a) b
  | .str a, .str b => some (relation.holds (compare a b))
  | .bytes a, .bytes b => some (relation.holds (compareBytes a b))
  | .list a, .list b => itemsOrder? a b
  | .tuple a, .tuple b => itemsOrder? a b
  | _, _ => none
where
  /-- A number against another term. -/
  numbers (n : Number) (b : Term) : Option Bool :=
    b.number?.map fun m => (n.compare? m).any relation.holds

/-- The first pair of elements that differ decides, else the lengths do. -/
def itemsOrder? : List Term → List Term → Option Bool
  | [], [] => some (relation.holds .eq)
  | [], _ :: _ => some (relation.holds .lt)
  | _ :: _, [] => some (relation.holds .gt)
  | a :: as, b :: bs => if same alike a b then itemsOrder? as bs else orders? a b

end

end

/-- Inserts a term before the first one that it is less than, if all comparisons on the way can be
made. -/
def insertSorted? (alike : String → String → Bool) (x : Term) : List Term → Option (List Term)
  | [] => some [x]
  | y :: ys => do
    if ← orders? alike .less x y then some (x :: y :: ys)
    else (insertSorted? alike x ys).map (y :: ·)

/-- The terms in increasing order, equal ones as they came, if they can be ordered. -/
def sort? (alike : String → String → Bool) (xs : List Term) : Option (List Term) :=
  xs.foldlM (fun sorted x => insertSorted? alike x sorted) []

end Term

end SpecMatch
