import SpecMatch.Term.Equality

/-!
# Keys

A map is keyed by the terms that can be hashed: everything but lists, maps, field bags, recorders,
objects that are compared by what they have been asked, and what is built from them. `Entries` are
the entries of a map in insertion order; inserting under a key that is already there replaces the
value and keeps the first key and its place.
-/

namespace SpecMatch

namespace Term

mutual

/-- Whether a term can be the key of a map. -/
def hashable : Term → Bool
  | .list _ | .map .. | .fields _ | .recorder .. => false
  | .tuple items => hashableAll items
  | .circle x | .square x | .left x | .right x => hashable x
  | .comparison _ x | .negation x | .maybe x | .strict x | .everyItem x | .someItem x => hashable x
  | .keyed x _ _ | .action x => hashable x
  | .oneOf items _ | .allOf items | .anyOf items | .fanout items => hashableAll items
  | .dispatcher cases => hashablePairs cases
  | .object handle => handle.memory.isNone
  | _ => true

/-- Whether all terms can be keys. -/
def hashableAll : List Term → Bool
  | [] => true
  | x :: xs => hashable x && hashableAll xs

/-- Whether both parts of all pairs can be keys. -/
def hashablePairs : List (Term × Term) → Bool
  | [] => true
  | (k, v) :: ps => hashable k && hashable v && hashablePairs ps

end

end Term

/-- The entries of a map, in insertion order. -/
abbrev Entries := List (Term × Term)

namespace Entries

/-- The value under a key. -/
def get? (entries : Entries) (key : Term) : Option Term :=
  (entries.find? fun e => e.1.sameKey key).map (·.2)

/-- Puts a value under a key: in place of the value that is there, else at the end. -/
def insert (entries : Entries) (key value : Term) : Entries :=
  match entries with
  | [] => [(key, value)]
  | (k, v) :: rest =>
    if k.sameKey key then (k, value) :: rest else (k, v) :: insert rest key value

/-- The entries that a sequence of pairs leaves, the last one under each key winning. -/
def ofPairs (pairs : List (Term × Term)) : Entries :=
  pairs.foldl (fun entries p => entries.insert p.1 p.2) []

end Entries

/-- The attributes of a field bag, in insertion order. -/
abbrev Attributes := List (String × Term)

namespace Attributes

/-- The value of an attribute. -/
def get? (attributes : Attributes) (name : String) : Option Term :=
  (attributes.find? fun a => a.1 == name).map (·.2)

/-- Sets an attribute: in its place if it is there, else at the end. -/
def insert (attributes : Attributes) (name : String) (value : Term) : Attributes :=
  match attributes with
  | [] => [(name, value)]
  | (n, v) :: rest =>
    if n == name then (n, value) :: rest else (n, v) :: insert rest name value

/-- The attributes that a sequence of pairs leaves, the last one of each name winning. -/
def ofPairs (pairs : List (String × Term)) : Attributes :=
  pairs.foldl (fun attributes p => attributes.insert p.1 p.2) []

end Attributes

end SpecMatch
