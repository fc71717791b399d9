import SpecMatch.Term.Basic

/-!
# Key paths

A child at the top level has a bare key; deeper down the keys from the root are gathered in a
tuple. `segment` cuts a piece out of a sequence: a start counts from the end if it is negative, a
length stops short of the end if it is.
-/

namespace SpecMatch

namespace Term

/-- A key as the path from the root. -/
def keyPath : Term → List Term
  | .null => []
  | .tuple path => path
  | key => [key]

/-- The key of a child: its bare key below the root, else the extended path. -/
def childKey (parent key : Term) : Term :=
  match parent with
  | .null => key
  | _ => .tuple (parent.keyPath ++ [key])

end Term

/-- Where a segment of a sequence of `size` elements begins. -/
def segmentStart (size : Nat) (start : Int) : Int :=
  if 0 ≤ start then start else max (size + start) 0

/-- Where a segment ends, before positions that lie in front of the sequence are counted from its
end. -/
def segmentEnd (size : Nat) (start : Int) : Option Int → Int
  | none => size
  | some length => if 0 ≤ length then segmentStart size start + length else size + length

/-- The elements from the start to before the end of a segment. An end in front of the sequence
counts from the end of the sequence once more. -/
def segment {α : Type} (xs : List α) (start : Int) (length : Option Int) : List α :=
  let stop := segmentEnd xs.length start length
  let stop := if stop < 0 then stop + xs.length else stop
  (xs.take stop.toNat).drop (segmentStart xs.length start).toNat

/-- A key cut like a sequence; the whole key if nothing is cut off, and no key if it cannot be
cut. -/
def Term.cutKey (key : Term) (start : Int) (length : Option Int) : Term :=
  if start == 0 && length.isNone then key
  else match key with
    | .str s => .str (String.ofList (segment s.toList start length))
    | .tuple path => .tuple (segment path start length)
    | _ => .null

end SpecMatch
