import SpecMatch.Fault
import SpecMatch.Term.Key

/-!
# Containers

Lists and tuples are arrays, keyed by position; the three kinds of maps are keyed by hashable
terms; field bags are keyed by attribute names. Everything else is a scalar, text included.

`entries`, `lookup?` and `rebuild` are the uniform view of the three forms. `withChildren` replaces
the children of a container and keeps its keys, so what a match answers has the shape of the value.
-/

namespace SpecMatch

/-- The three forms of containers. -/
inductive Form where
  | array | map | fields
deriving DecidableEq

namespace Term

/-- The form of a container; a scalar has none. -/
def form? : Term → Option Form
  | .list _ | .tuple _ => some .array
  | .map .. => some .map
  | .fields _ => some .fields
  | _ => none

/-- Whether a term is a container. -/
def isContainer (x : Term) : Bool := x.form?.isSome

/-- The items of an array under their positions, counted from `start`. -/
def positions (start : Nat) : List Term → Entries
  | [] => []
  | x :: xs => (.int start, x) :: positions (start + 1) xs

/-- The keys and children of a container in order; a scalar has none. -/
def entries : Term → Entries
  | .list items | .tuple items => positions 0 items
  | .map _ entries => entries
  | .fields attributes => attributes.map fun a => (.str a.1, a.2)
  | _ => []

/-- The children of a container in order. -/
def children (x : Term) : List Term := x.entries.map (·.2)

/-- The child under a key. An array is asked by an integer within its bounds, a map by the same
hashable key, a field bag by text. -/
def lookup? : Term → Term → Option Term
  | .list items, .int i | .tuple items, .int i => if 0 ≤ i then items[i.toNat]? else none
  | .map _ entries, key => if key.hashable then Entries.get? entries key else none
  | .fields attributes, .str name => Attributes.get? attributes name
  | _, _ => none

/-- The child under a key, or a given term where there is none. -/
def lookup (x key : Term) (default : Term := .missing) : Term := (x.lookup? key).getD default

/-- A container with the same keys and other children, given in order. A map becomes a plain
one. -/
def withChildren : Term → List Term → Term
  | .list _, children => .list children
  | .tuple _, children => .tuple children
  | .map _ entries, children => .map .plain (entries.zipWith (fun e v => (e.1, v)) children)
  | .fields attributes, children =>
    .fields (attributes.zipWith (fun a v => (a.1, v)) children)
  | x, _ => x

/-- The positions among the keys, if all of them are natural numbers. -/
def indexed? (slots : Entries) : Option (List (Nat × Term)) :=
  slots.mapM fun
    | (.int (.ofNat i), v) => some (i, v)
    | _ => none

/-- One more than the largest index. -/
def extent (slots : List (Nat × Term)) : Nat := slots.foldl (fun n s => max n (s.1 + 1)) 0

/-- The items of an array that holds each value at its index and `fill` elsewhere. -/
def spread (slots : List (Nat × Term)) (fill : Term) : List Term :=
  (List.range (extent slots)).map fun i => (slots.lookup i).getD fill

/-- A container shaped like `like` from pairs of which the last one under each key counts. Gaps of
an array are filled; an array with a key that is no index can only be a map. The keys of a field
bag are their texts, spelled by `spell` where they are no text. -/
def rebuild (spell : Term → String) (like : Term) (pairs : List (Term × Term))
    (fill : Term := .null) : Except Fault Term :=
  if pairs.all (·.1.hashable) then
    let slots := Entries.ofPairs pairs
    let array (of : List Term → Term) : Term :=
      match indexed? slots with
      | some indexed => of (spread indexed fill)
      | none => .map .plain slots
    match like with
    | .list _ => .ok (array .list)
    | .tuple _ => .ok (array .tuple)
    | .map .. => .ok (.map .plain slots)
    | .fields _ =>
      let name : Term → String
        | .str s => s
        | key => spell key
      .ok (.fields (Attributes.ofPairs (slots.map fun e => (name e.1, e.2))))
    | _ => .error (.scalarRebuild like.classOf)
  else .error (.misuse .unhashable)

mutual

/-- The same shape with every leaf replaced by `null`. -/
def nullShape : Term → Term
  | .list items => .list (nullItems items)
  | .tuple items => .tuple (nullItems items)
  | .map _ entries => .map .plain (nullEntries entries)
  | .fields attributes => .fields (nullAttributes attributes)
  | _ => .null

/-- The null shapes of a sequence. -/
def nullItems : List Term → List Term
  | [] => []
  | x :: xs => nullShape x :: nullItems xs

/-- Entries with the null shapes of their values. -/
def nullEntries : List (Term × Term) → List (Term × Term)
  | [] => []
  | (k, v) :: es => (k, nullShape v) :: nullEntries es

/-- Attributes with the null shapes of their values. -/
def nullAttributes : List (String × Term) → List (String × Term)
  | [] => []
  | (n, v) :: as => (n, nullShape v) :: nullAttributes as

end

mutual

/-- Whether a term is `null` or a container of nothing but nulls, at any depth. -/
def isNull : Term → Bool
  | .null => true
  | .list items | .tuple items => areNull items
  | .map _ entries => entriesNull entries
  | .fields attributes => attributesNull attributes
  | _ => false

/-- Whether all terms are null. -/
def areNull : List Term → Bool
  | [] => true
  | x :: xs => isNull x && areNull xs

/-- Whether the values of all entries are null. -/
def entriesNull : List (Term × Term) → Bool
  | [] => true
  | (_, v) :: es => isNull v && entriesNull es

/-- Whether the values of all attributes are null. -/
def attributesNull : List (String × Term) → Bool
  | [] => true
  | (_, v) :: as => isNull v && attributesNull as

end

/-- The truth value of a term: `null`, `false`, the zeros, empty text and bytes, empty arrays and
maps and the missing mark are false, everything else is true. -/
def truthy : Term → Bool
  | .null | .missing => false
  | .bool b => b
  | .int i => i != 0
  | .float x => !x.isZero
  | .str s => !s.isEmpty
  | .bytes bs => !bs.isEmpty
  | .list items | .tuple items => !items.isEmpty
  | .map _ entries => !entries.isEmpty
  | _ => true

/-- The number of elements of text, bytes, arrays and maps. -/
def length? : Term → Option Nat
  | .str s => some s.length
  | .bytes bs => some bs.length
  | .list items | .tuple items => some items.length
  | .map _ entries => some entries.length
  | _ => none

/-- The elements that an iteration visits: characters, byte values, items or keys. -/
def elements? : Term → Option (List Term)
  | .str s => some (s.toList.map fun c => .str c.toString)
  | .bytes bs => some (bs.map fun b => .int b.toNat)
  | .list items | .tuple items => some items
  | .map _ entries => some (entries.map (·.1))
  | _ => none

end Term

end SpecMatch
